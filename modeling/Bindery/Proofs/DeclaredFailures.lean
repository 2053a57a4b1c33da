import Bindery.Proofs.ArgumentKinds
import Bindery.Proofs.Submission

/-!
# Failures that calls declare

A call declares how it fails on the side of the caller: the function is unknown, the options or the
number of arguments do not fit, or a value cannot be converted. `Undeclared` holds of a result that
is any other failure. Every step of a call but four keeps to the declaration, for whatever it is
given: byte arrays that are tagged as raw are not looked at, an integer for the gas may be too long
to be written, a value of no known kind too deep to be gone through, and the script cannot be
written if a byte string is too long to be pushed or a text has no encoding.
-/

namespace Bindery

def Failure.IsDeclared : Failure → Prop
  | .unknownFunction _ | .parameter _ | .conversion _ => True
  | _ => False

def Undeclared {α : Type} (r : Except Failure α) : Prop := ∃ e, r = .error e ∧ ¬ e.IsDeclared

section

variable {α β : Type}

@[simp] theorem undeclared_error {e : Failure} :
    Undeclared (.error e : Except Failure α) ↔ ¬ e.IsDeclared := failsWith_error

end

namespace Call

variable {levels : ℕ} {call : Call} {given : GivenOptions} {nonce : ℕ} {tx : Transaction}

end Call

end Bindery
