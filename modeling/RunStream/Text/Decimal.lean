import RunStream.Text.Binary64

set_option autoImplicit false

namespace RunStream.Text

structure Decimal where
  digits : Nat
  exponent : Int
deriving DecidableEq, Repr

def decimalLength (n : Nat) : Nat :=
  if n = 0 then 0 else (Nat.toDigits 10 n).length

namespace Decimal

/-- A number of `n` digits lies below `10 ^ n` and not below `10 ^ (n - 1)`, and the bound has 309
digits, so only numbers with as many digits before the point need an exact comparison. -/
def overflows (number : Decimal) : Bool :=
  let places : Int := decimalLength number.digits + number.exponent
  if number.digits = 0 ∨ places < 309 then false
  else if 309 < places then true
  else
    match number.exponent with
    | .ofNat shift => Binary64.isInfinite (number.digits * Nat.pow 10 shift)
    | .negSucc shift => decide (Binary64.infinityBound * Nat.pow 10 (shift + 1) ≤ number.digits)

end Decimal

def decimalDigit? (c : Char) : Option Nat :=
  if '0' ≤ c ∧ c ≤ '9' then some (c.toNat - '0'.toNat) else none

def hexDigit? (c : Char) : Option Nat :=
  if '0' ≤ c ∧ c ≤ '9' then some (c.toNat - '0'.toNat)
  else if 'a' ≤ c ∧ c ≤ 'f' then some (c.toNat - 'a'.toNat + 10)
  else if 'A' ≤ c ∧ c ≤ 'F' then some (c.toNat - 'A'.toNat + 10)
  else none

def numeral? (digit? : Char → Option Nat) (base : Nat) (digits : List Char) : Option Nat :=
  digits.foldlM (fun value c => (digit? c).map (value * base + ·)) 0

def charOfCode? (code : Nat) : Option Char :=
  if valid : code.isValidChar then some (Char.ofNatAux code valid) else none

end RunStream.Text
