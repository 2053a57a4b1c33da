import Bindery.Bytes
import Bindery.Text.CodePoint

/-!
# Encoded text

Text arrives as bytes in UTF-8, UTF-16 or UTF-32. `detect` chooses the encoding of a JSON document
from its first bytes: a byte-order mark decides, and without one the zero bytes around the first
character do. A refused text names the first bytes that are no character and why.

Surrogate code units that do not form a pair are let through where a document is decoded and stand
for themselves.
-/

namespace Bindery.Text

inductive Codec
  | utf8 | utf16LE | utf16BE | utf32LE | utf32BE
  deriving DecidableEq, Repr

def Codec.label : Codec → String
  | .utf8 => "utf-8"
  | .utf16LE => "utf-16-le"
  | .utf16BE => "utf-16-be"
  | .utf32LE => "utf-32-le"
  | .utf32BE => "utf-32-be"

inductive DecodeReason
  | invalidStart | invalidContinuation | unexpectedEnd | truncated | outOfRange
  deriving DecidableEq, Repr

def DecodeReason.label : DecodeReason → String
  | .invalidStart => "invalid start byte"
  | .invalidContinuation => "invalid continuation byte"
  | .unexpectedEnd => "unexpected end of data"
  | .truncated => "truncated data"
  | .outOfRange => "code point not in range(0x110000)"

/-- The bytes from `start` up to `stop` are no character; `first` is the byte at `start`. -/
structure DecodeError where
  codec : Codec
  first : UInt8
  start : Nat
  stop : Nat
  reason : DecodeReason
  deriving DecidableEq, Repr

def encodeChar (c : Char) : Bytes :=
  let n := c.toNat
  if n < 0x80 then [UInt8.ofNat n]
  else if n < 0x800 then [UInt8.ofNat (0xc0 + n / 64), UInt8.ofNat (0x80 + n % 64)]
  else if n < 0x10000 then
    [UInt8.ofNat (0xe0 + n / 4096), UInt8.ofNat (0x80 + n / 64 % 64), UInt8.ofNat (0x80 + n % 64)]
  else
    [UInt8.ofNat (0xf0 + n / 262144), UInt8.ofNat (0x80 + n / 4096 % 64),
      UInt8.ofNat (0x80 + n / 64 % 64), UInt8.ofNat (0x80 + n % 64)]

def encodeUtf8 (s : String) : Bytes := s.toList.flatMap encodeChar

def isContinuation (b : UInt8) : Bool := 0x80 ≤ b && b < 0xc0

/-- The low six bits of a continuation byte. -/
def payload (b : UInt8) : Nat := b.toNat % 64

/-- Decodes UTF-8 from byte `pos` on. With `surrogates` the three-byte forms of surrogate code
points are let through. -/
def decodeUtf8From (surrogates : Bool) (pos : Nat) : Bytes → Except DecodeError (List CodePoint)
  | [] => .ok []
  | a :: rest =>
    let refuse (width : Nat) (reason : DecodeReason) : Except DecodeError (List CodePoint) :=
      .error ⟨.utf8, a, pos, pos + width, reason⟩
    if a < 0x80 then
      (decodeUtf8From surrogates (pos + 1) rest).map (.char (Char.ofNat a.toNat) :: ·)
    else if a < 0xc2 then refuse 1 .invalidStart
    else if a < 0xe0 then
      match rest with
      | [] => refuse 1 .unexpectedEnd
      | b :: rest =>
        if isContinuation b then
          (decodeUtf8From surrogates (pos + 2) rest).map
            (.char (Char.ofNat (a.toNat % 32 * 64 + payload b)) :: ·)
        else refuse 1 .invalidContinuation
    else if a < 0xf0 then
      match rest with
      | [] => refuse 1 .unexpectedEnd
      | b :: rest =>
        let high := a == 0xed && 0xa0 ≤ b
        if !isContinuation b || (a == 0xe0 && b < 0xa0) then refuse 1 .invalidContinuation
        else
          match rest with
          | [] => if high then refuse 1 .invalidContinuation else refuse 2 .unexpectedEnd
          | c :: rest =>
            if !isContinuation c then
              refuse (if high then 1 else 2) .invalidContinuation
            else if high && !surrogates then refuse 1 .invalidContinuation
            else
              (decodeUtf8From surrogates (pos + 3) rest).map
                (.ofNat (a.toNat % 16 * 4096 + payload b * 64 + payload c) :: ·)
    else if a < 0xf5 then
      match rest with
      | [] => refuse 1 .unexpectedEnd
      | b :: rest =>
        if !isContinuation b || (a == 0xf0 && b < 0x90) || (a == 0xf4 && 0x90 ≤ b) then
          refuse 1 .invalidContinuation
        else
          match rest with
          | [] => refuse 2 .unexpectedEnd
          | c :: rest =>
            if !isContinuation c then refuse 2 .invalidContinuation
            else
              match rest with
              | [] => refuse 3 .unexpectedEnd
              | d :: rest =>
                if !isContinuation d then refuse 3 .invalidContinuation
                else
                  (decodeUtf8From surrogates (pos + 4) rest).map
                    (.char (Char.ofNat (a.toNat % 8 * 262144 + payload b * 4096 + payload c * 64
                      + payload d)) :: ·)
    else refuse 1 .invalidStart

def decodeUtf8? (b : Bytes) : Option String :=
  (decodeUtf8From false 0 b).toOption.bind fun ps => (ofPoints ps).whole?

/-- The 16-bit units of a byte string, with the position of a byte left over at the end. -/
def units16 (unit : UInt8 → UInt8 → Nat) : Bytes → List Nat × Option UInt8
  | a :: b :: rest => let (us, last) := units16 unit rest; (unit a b :: us, last)
  | [a] => ([], some a)
  | [] => ([], none)

def joinUnits16 : List Nat → List CodePoint
  | high :: low :: rest =>
    if 0xd800 ≤ high && high < 0xdc00 && 0xdc00 ≤ low && low < 0xe000 then
      .char (Char.ofNat (0x10000 + (high - 0xd800) * 0x400 + (low - 0xdc00))) :: joinUnits16 rest
    else .ofNat high :: joinUnits16 (low :: rest)
  | [unit] => [.ofNat unit]
  | [] => []

def decodeUtf16From (codec : Codec) (unit : UInt8 → UInt8 → Nat) (pos : Nat) (b : Bytes) :
    Except DecodeError (List CodePoint) :=
  match units16 unit b with
  | (units, none) => .ok (joinUnits16 units)
  | (units, some last) =>
    .error ⟨codec, last, pos + 2 * units.length, pos + 2 * units.length + 1, .truncated⟩

def decodeUtf32From (codec : Codec) (unit : UInt8 → UInt8 → UInt8 → UInt8 → Nat) (pos : Nat) :
    Bytes → Except DecodeError (List CodePoint)
  | a :: b :: c :: d :: rest =>
    let n := unit a b c d
    if n < 0x110000 then
      (decodeUtf32From codec unit (pos + 4) rest).map (.ofNat n :: ·)
    else .error ⟨codec, a, pos, pos + 4, .outOfRange⟩
  | [] => .ok []
  | a :: rest => .error ⟨codec, a, pos, pos + 1 + rest.length, .truncated⟩

def unit16LE (a b : UInt8) : Nat := a.toNat + 256 * b.toNat

def unit16BE (a b : UInt8) : Nat := unit16LE b a

def unit32LE (a b c d : UInt8) : Nat := unit16LE a b + 65536 * unit16LE c d

def unit32BE (a b c d : UInt8) : Nat := unit32LE d c b a

def decodeFrom (codec : Codec) (pos : Nat) (b : Bytes) : Except DecodeError (List CodePoint) :=
  match codec with
  | .utf8 => decodeUtf8From true pos b
  | .utf16LE => decodeUtf16From codec unit16LE pos b
  | .utf16BE => decodeUtf16From codec unit16BE pos b
  | .utf32LE => decodeUtf32From codec unit32LE pos b
  | .utf32BE => decodeUtf32From codec unit32BE pos b

/-- An encoding, the length of the mark that announced it, and the position given to the first byte
after the mark. -/
structure Detected where
  codec : Codec
  mark : Nat
  origin : Nat
  deriving DecidableEq, Repr

/-- The byte-order marks; a longer one comes before the shorter one that it starts with. -/
def marks : List (Bytes × Detected) :=
  [ ([0xff, 0xfe, 0, 0], ⟨.utf32LE, 4, 4⟩), ([0, 0, 0xfe, 0xff], ⟨.utf32BE, 4, 4⟩),
    ([0xff, 0xfe], ⟨.utf16LE, 2, 2⟩), ([0xfe, 0xff], ⟨.utf16BE, 2, 2⟩),
    ([0xef, 0xbb, 0xbf], ⟨.utf8, 3, 0⟩) ]

/-- The encoding of a document without a mark, from the zero bytes around its first character. -/
def detectUnmarked : Bytes → Codec
  | a :: b :: c :: d :: _ =>
    if a = 0 then if b = 0 then .utf32BE else .utf16BE
    else if b = 0 then if c = 0 ∧ d = 0 then .utf32LE else .utf16LE
    else .utf8
  | [a, b] => if a = 0 then .utf16BE else if b = 0 then .utf16LE else .utf8
  | _ => .utf8

def detect (b : Bytes) : Detected :=
  match marks.find? fun m => m.1.isPrefixOf b with
  | some m => m.2
  | none => ⟨detectUnmarked b, 0, 0⟩

/-- The code points of a document in any of the encodings that `detect` knows. -/
def decode (b : Bytes) : Except DecodeError (List CodePoint) :=
  let d := detect b
  decodeFrom d.codec d.origin (b.drop d.mark)

end Bindery.Text
