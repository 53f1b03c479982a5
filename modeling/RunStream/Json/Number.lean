import RunStream.Text.Binary64
import RunStream.Text.Decimal

set_option autoImplicit false

namespace RunStream.Json

open Text

def appendDigits : Nat → List Nat → Nat × Nat
  | value, [] => (value, 0)
  | value, digit :: rest =>
      if value * 10 + digit < Nat.pow 2 64 then
        let (longer, taken) := appendDigits (value * 10 + digit) rest
        (longer, taken + 1)
      else (value, 0)

/-- A digit before the point that is left out still counts as a place, and each digit after it that
is not left out takes one back. -/
def readDecimal (whole fraction : List Nat) (exponent : Int) : Decimal :=
  let (head, taken) := appendDigits 0 whole
  let (digits, places) := appendDigits head fraction
  { digits, exponent := exponent + (whole.length - taken : Nat) - places }

/-- From `10 ^ 309` on the power alone is infinite, and only zero stays finite with it. -/
def isInfinite (number : Decimal) : Bool :=
  match number.exponent with
  | .ofNat shift =>
      if number.digits = 0 then false
      else if 308 < shift then true
      else Binary64.isInfinite (Binary64.round number.digits * Binary64.round (Nat.pow 10 shift))
  | .negSucc _ => false

end RunStream.Json
