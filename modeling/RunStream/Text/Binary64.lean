set_option autoImplicit false

namespace RunStream.Text.Binary64

-- The whole number nearest to `n / unit`; a tie goes to the even one.
def roundQuotient (n unit : Nat) : Nat :=
  let below := n / unit
  let twice := 2 * (n % unit)
  if twice < unit ∨ (twice = unit ∧ below % 2 = 0) then below else below + 1

def spacing (n : Nat) : Nat :=
  Nat.pow 2 (n.log2 + 1 - 53)

def round (n : Nat) : Nat :=
  roundQuotient n (spacing n) * spacing n

/-- From here on the nearest value is infinite: halfway between the largest finite value,
`2 ^ 1024 - 2 ^ 971`, and `2 ^ 1024`. -/
def infinityBound : Nat := Nat.pow 2 1024 - Nat.pow 2 970

def isInfinite (n : Nat) : Bool :=
  decide (infinityBound ≤ n)

end RunStream.Text.Binary64
