import Bindery.Hex
import Bindery.Text.Encoding

/-!
# Percent encoding

A character that may not stand for itself is written by the bytes of its UTF-8 form, each as a
percent sign and two uppercase digits. A percent sign always stands for itself, so what is encoded
already stays as it is.
-/

namespace Bindery.Text

def percentByte (b : UInt8) : List Char := '%' :: (Hex.digitsOf b).map Char.toUpper

/-- A text with every character encoded that is not `safe`. -/
def percentEncode (safe : Char → Bool) (cs : List Char) : List Char :=
  cs.flatMap fun c => if safe c || c = '%' then [c] else (encodeChar c).flatMap percentByte

end Bindery.Text
